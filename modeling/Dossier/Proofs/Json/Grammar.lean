import Dossier.Proofs.Json.Reading
import Mathlib.Data.List.TakeWhile

/-!
# The grammar of JSON

What a text has to be to be a value, an object, or a part of one (`Dossier.Json.Forms`). The grammar
knows no depth and no size of numbers, and does not ask of escapes that they come to a character, so
it is wider than what can be read. Whatever is read is of the grammar
(`Dossier.Json.forms_of_parse?`).
-/

namespace Dossier.Json

open Decimal (IsDigit)

/-! ### Strings and numbers -/

/-- Whether a character is a hexadecimal digit. -/
def IsHexDigit (c : Char) : Prop :=
  IsDigit c ∨ ('a' ≤ c ∧ c ≤ 'f') ∨ ('A' ≤ c ∧ c ≤ 'F')

instance : DecidablePred IsHexDigit := fun c =>
  inferInstanceAs (Decidable (IsDigit c ∨ ('a' ≤ c ∧ c ≤ 'f') ∨ ('A' ≤ c ∧ c ≤ 'F')))

/-- **Whether a text may stand between the quotes of a string.** -/
inductive IsBody : List Char → Prop
  | nil : IsBody []
  | plain {c : Char} {cs : List Char} (hquote : c ≠ '"') (hslash : c ≠ '\\')
      (hcontrol : 32 ≤ c.toNat) (h : IsBody cs) : IsBody (c :: cs)
  | escape {c : Char} {cs : List Char} (hescape : c ∈ ['"', '\\', '/', 'b', 'f', 'n', 'r', 't'])
      (h : IsBody cs) : IsBody ('\\' :: c :: cs)
  | unicode {a b c d : Char} {cs : List Char} (hdigits : ∀ x ∈ [a, b, c, d], IsHexDigit x)
      (h : IsBody cs) : IsBody ('\\' :: 'u' :: a :: b :: c :: d :: cs)

/-- Whether a text is a run of digits, with one at least. -/
def IsDigits (ds : List Char) : Prop :=
  ds ≠ [] ∧ ∀ d ∈ ds, IsDigit d

/-- Whether a text may follow the digits before the point. -/
inductive IsFraction : List Char → Prop
  | none : IsFraction []
  | point {ds : List Char} (h : IsDigits ds) : IsFraction ('.' :: ds)

/-- Whether a text may stand at the end of a number. -/
inductive IsExponent : List Char → Prop
  | none : IsExponent []
  | mark {e : Char} {sign ds : List Char} (he : e = 'e' ∨ e = 'E')
      (hsign : sign ∈ [[], ['+'], ['-']]) (h : IsDigits ds) : IsExponent (e :: (sign ++ ds))

/-- **Whether a text is a number.** It has no leading zeros. -/
inductive IsNumber : List Char → Prop
  | intro {sign whole fraction exponent : List Char} (hsign : sign ∈ [[], ['-']])
      (hwhole : IsDigits whole) (hzero : whole.head? = some '0' → whole.length = 1)
      (hfraction : IsFraction fraction) (hexponent : IsExponent exponent) :
      IsNumber (sign ++ (whole ++ (fraction ++ exponent)))

/-! ### Values -/

/-- The parts of a text that the grammar tells apart. -/
inductive Phrase where
  | value
  | object
  /-- A value with blanks around it. -/
  | item
  /-- Items with commas between them. -/
  | items
  /-- A name and an item. -/
  | member
  /-- Members with commas between them. -/
  | members
deriving DecidableEq, Repr

/-- **The grammar**: whether a text is a phrase of a kind. -/
inductive Forms : Phrase → List Char → Prop
  | null : Forms .value "null".toList
  | bool (b : Bool) : Forms .value (if b then "true" else "false").toList
  | number {cs : List Char} (h : IsNumber cs) : Forms .value cs
  | string {cs : List Char} (h : IsBody cs) : Forms .value ('"' :: (cs ++ ['"']))
  | noItems {gap : List Char} (h : Blank gap) : Forms .value ('[' :: (gap ++ [']']))
  | array {cs : List Char} (h : Forms .items cs) : Forms .value ('[' :: (cs ++ [']']))
  | ofObject {cs : List Char} (h : Forms .object cs) : Forms .value cs
  | noMembers {gap : List Char} (h : Blank gap) : Forms .object ('\x7b' :: (gap ++ ['\x7d']))
  | object {cs : List Char} (h : Forms .members cs) : Forms .object ('\x7b' :: (cs ++ ['\x7d']))
  | item {before cs after : List Char} (hbefore : Blank before) (h : Forms .value cs)
      (hafter : Blank after) : Forms .item (before ++ (cs ++ after))
  | lastItem {cs : List Char} (h : Forms .item cs) : Forms .items cs
  | moreItems {cs rest : List Char} (h : Forms .item cs) (hrest : Forms .items rest) :
      Forms .items (cs ++ ',' :: rest)
  | member {before name after cs : List Char} (hbefore : Blank before) (hname : IsBody name)
      (hafter : Blank after) (h : Forms .item cs) :
      Forms .member (before ++ '"' :: (name ++ '"' :: (after ++ ':' :: cs)))
  | lastMember {cs : List Char} (h : Forms .member cs) : Forms .members cs
  | moreMembers {cs rest : List Char} (h : Forms .member cs) (hrest : Forms .members rest) :
      Forms .members (cs ++ ',' :: rest)

/-! ### What is read of a string is a body -/

variable {acc cs rest name : List Char} {c : Char} {v : Json}

theorem isHexDigit_of_hexValue? {n : Nat} (h : Text.hexValue? c = some n) : IsHexDigit c := by
  unfold Text.hexValue? at h
  split at h
  · next hdigit => exact Or.inl hdigit
  · split at h
    · next hlower => exact Or.inr (Or.inl hlower)
    · split at h
      · next hupper => exact Or.inr (Or.inr hupper)
      · cases h

theorem isHexDigit_of_hex4? {a b c d : Char} {n : Nat} (h : hex4? a b c d = some n) :
    ∀ x ∈ [a, b, c, d], IsHexDigit x := by
  simp only [hex4?, Option.bind_eq_bind, Option.bind_eq_some_iff] at h
  obtain ⟨_, ha, _, hb, _, hc, _, hd, -⟩ := h
  simp [isHexDigit_of_hexValue? ha, isHexDigit_of_hexValue? hb, isHexDigit_of_hexValue? hc,
    isHexDigit_of_hexValue? hd]

theorem mem_of_plainEscape? {e : Char} (h : plainEscape? c = some e) :
    c ∈ ['"', '\\', '/', 'b', 'f', 'n', 'r', 't'] := by
  by_contra hmem
  simp only [List.mem_cons, List.not_mem_nil, or_false, not_or] at hmem
  simp [plainEscape?, hmem] at h

/-- **What is read of a string** is a body with a quote behind it. -/
theorem exists_body_of_stringTail? (h : stringTail? acc cs = some (name, rest)) :
    ∃ body, cs = body ++ '"' :: rest ∧ IsBody body := by
  fun_induction stringTail? acc cs with
  | case1 | case3 | case4 | case6 | case7 | case8 | case11 | case12 => cases h
  | case2 acc cs =>
    obtain ⟨-, rfl⟩ := Prod.mk.inj (Option.some.inj h)
    exact ⟨[], rfl, .nil⟩
  | case5 acc a b c d m hhigh _ e f g i rest k hlow _ ih =>
    obtain ⟨body, rfl, hbody⟩ := ih h
    exact ⟨_ :: _ :: a :: b :: c :: d :: _ :: _ :: e :: f :: g :: i :: body, rfl,
      .unicode (isHexDigit_of_hex4? hhigh) (.unicode (isHexDigit_of_hex4? hlow) hbody)⟩
  | case9 acc a b c d cs m hhex _ _ ih =>
    obtain ⟨body, rfl, hbody⟩ := ih h
    exact ⟨_ :: _ :: a :: b :: c :: d :: body, rfl, .unicode (isHexDigit_of_hex4? hhex) hbody⟩
  | case10 acc c cs _ e hescape ih =>
    obtain ⟨body, rfl, hbody⟩ := ih h
    exact ⟨'\\' :: c :: body, rfl, .escape (mem_of_plainEscape? hescape) hbody⟩
  | case13 acc c cs hquote _ hslash hplain ih =>
    obtain ⟨body, rfl, hbody⟩ := ih h
    simp only [Bool.or_eq_true, decide_eq_true_eq, beq_iff_eq, not_or] at hplain
    exact ⟨c :: body, rfl, .plain hquote hplain.2 (Nat.not_lt.mp hplain.1) hbody⟩

/-! ### What is read of a number is one -/

theorem exists_sign_minus (cs : List Char) :
    ∃ sign ∈ [[], ['-']], cs = sign ++ (minus cs).2 := by
  unfold minus
  split
  · exact ⟨['-'], by simp, rfl⟩
  · exact ⟨[], by simp, rfl⟩

theorem exists_sign_exponentMinus (cs : List Char) :
    ∃ sign ∈ [[], ['+'], ['-']], cs = sign ++ (exponentMinus cs).2 := by
  unfold exponentMinus
  split
  · exact ⟨['+'], by simp, rfl⟩
  · obtain ⟨sign, hsign, heq⟩ := exists_sign_minus cs
    refine ⟨sign, ?_, heq⟩
    simp only [List.mem_cons, List.not_mem_nil, or_false] at hsign ⊢
    tauto

theorem eq_digitRun_append (cs : List Char) : cs = (digitRun cs).1 ++ (digitRun cs).2 :=
  (List.prefix_iff_eq_append.mp (List.takeWhile_prefix _)).symm

theorem isDigits_digitRun (h : (digitRun cs).1.isEmpty = false) : IsDigits (digitRun cs).1 := by
  refine ⟨by simpa using h, fun d hd => ?_⟩
  have hdigit := List.mem_takeWhile_imp hd
  simpa [IsDigit] using hdigit

theorem exists_fraction {ds : List Char} (h : fraction? cs = some (ds, rest)) :
    ∃ text, cs = text ++ rest ∧ IsFraction text := by
  unfold fraction? at h
  split at h
  · next cs =>
    dsimp only at h
    split at h
    · cases h
    · next hne =>
      obtain ⟨rfl, rfl⟩ := Prod.mk.inj (Option.some.inj h)
      refine ⟨'.' :: (digitRun cs).1, congrArg _ (eq_digitRun_append cs), .point ?_⟩
      exact isDigits_digitRun (Bool.eq_false_of_not_eq_true hne)
  · obtain ⟨-, rfl⟩ := Prod.mk.inj (Option.some.inj h)
    exact ⟨[], rfl, .none⟩

theorem exists_exponent {k : Option Int} (h : exponent? cs = some (k, rest)) :
    ∃ text, cs = text ++ rest ∧ IsExponent text := by
  unfold exponent? at h
  split at h
  · obtain ⟨-, rfl⟩ := Prod.mk.inj (Option.some.inj h)
    exact ⟨[], rfl, .none⟩
  · next e cs =>
    split at h
    · next he =>
      dsimp only at h
      split at h
      · cases h
      · next hne =>
        obtain ⟨-, rfl⟩ := Prod.mk.inj (Option.some.inj h)
        obtain ⟨sign, hsign, hcs⟩ := exists_sign_exponentMinus cs
        have hrun := eq_digitRun_append (exponentMinus cs).2
        refine ⟨e :: (sign ++ (digitRun (exponentMinus cs).2).1), ?_, .mark ?_ hsign ?_⟩
        · rw [List.cons_append, List.append_assoc, ← hrun, ← hcs]
        · simpa using he
        · exact isDigits_digitRun (Bool.eq_false_of_not_eq_true hne)
    · obtain ⟨-, rfl⟩ := Prod.mk.inj (Option.some.inj h)
      exact ⟨[], rfl, .none⟩

/-- **What is read of a number** is one. -/
theorem exists_number {n : Numeral} (h : numeral? cs = some (n, rest)) :
    ∃ text, cs = text ++ rest ∧ IsNumber text := by
  rw [numeral?] at h
  dsimp only at h
  split at h
  · cases h
  · next hwhole =>
    simp only [Option.bind_eq_bind, Option.bind_eq_some_iff, Prod.exists, Option.pure_def] at h
    obtain ⟨fraction, cs₁, hfraction, exponent, cs₂, hexponent, h⟩ := h
    obtain ⟨-, rfl⟩ := Prod.mk.inj (Option.some.inj h)
    obtain ⟨sign, hsign, hcs⟩ := exists_sign_minus cs
    have hrun := eq_digitRun_append (minus cs).2
    obtain ⟨point, hpoint, hisFraction⟩ := exists_fraction hfraction
    obtain ⟨mark, hmark, hisExponent⟩ := exists_exponent hexponent
    simp only [Bool.or_eq_true, Bool.and_eq_true, beq_iff_eq, decide_eq_true_eq, not_or, not_and,
      not_not, Bool.not_eq_true] at hwhole
    refine ⟨_, ?_, .intro hsign (isDigits_digitRun hwhole.1) hwhole.2 hisFraction hisExponent⟩
    rw [List.append_assoc, List.append_assoc, List.append_assoc, ← hmark, ← hpoint, ← hrun, ← hcs]

/-! ### What is read of a value is one -/

theorem exists_gap (cs : List Char) : ∃ gap, Blank gap ∧ cs = gap ++ skipSpace cs :=
  ⟨cs.takeWhile isSpace, fun _ hc => List.mem_takeWhile_imp hc,
    List.takeWhile_append_dropWhile.symm⟩

/-- What a value is written as. -/
def phrase : Json → Phrase
  | object _ => .object
  | _ => .value

theorem Forms.toValue (h : Forms v.phrase cs) : Forms .value cs := by
  cases v with
  | object _ => exact .ofObject h
  | _ => exact h

theorem phrase_of_value? {n : Numeral} (h : n.value? = some v) : v.phrase = .value := by
  rw [Numeral.value?] at h
  split at h
  · exact Option.some.inj h ▸ rfl
  · split at h
    · exact Option.some.inj h ▸ rfl
    · obtain ⟨x, -, rfl⟩ := Option.map_eq_some_iff.mp h
      rfl

/-- **Whether what is read in so many steps is of the grammar.** Items and members are read with
the bracket behind them. -/
structure Sound (fuel : Nat) : Prop where
  value : ∀ {depth cs v rest}, value? fuel depth cs = some (v, rest) →
    ∃ gap text, Blank gap ∧ cs = gap ++ (text ++ rest) ∧ Forms v.phrase text
  items : ∀ {depth cs vs rest}, items? fuel depth cs = some (vs, rest) →
    ∃ text, cs = text ++ ']' :: rest ∧ Forms .items text
  members : ∀ {depth cs ms rest}, members? fuel depth cs = some (ms, rest) →
    ∃ text, cs = text ++ '\x7d' :: rest ∧ Forms .members text

variable {fuel depth : Nat} {vs : List Json} {ms : List (String × Json)}

/-- A value with the blanks behind it is an item. -/
theorem Sound.item (ih : Sound fuel) (h : value? fuel depth cs = some (v, rest)) :
    ∃ text, cs = text ++ skipSpace rest ∧ Forms .item text := by
  obtain ⟨before, text, hbefore, rfl, hforms⟩ := ih.value h
  obtain ⟨after, hafter, heq⟩ := exists_gap rest
  refine ⟨before ++ (text ++ after), ?_, .item hbefore hforms.toValue hafter⟩
  rw [List.append_assoc, List.append_assoc, ← heq]

theorem Sound.items_succ (ih : Sound fuel) (h : items? (fuel + 1) depth cs = some (vs, rest)) :
    ∃ text, cs = text ++ ']' :: rest ∧ Forms .items text := by
  rw [items?] at h
  split at h
  · cases h
  · next v behind hvalue =>
    obtain ⟨text, rfl, hitem⟩ := ih.item hvalue
    split at h
    · next heq =>
      obtain ⟨-, rfl⟩ := Prod.mk.inj (Option.some.inj h)
      exact ⟨text, congrArg _ heq, .lastItem hitem⟩
    · next more heq =>
      obtain ⟨⟨vs, _⟩, hitems, hpair⟩ := Option.map_eq_some_iff.mp h
      obtain ⟨-, rfl⟩ := Prod.mk.inj hpair
      obtain ⟨others, rfl, hothers⟩ := ih.items hitems
      exact ⟨text ++ ',' :: others, by rw [heq]; simp, .moreItems hitem hothers⟩
    · cases h

theorem Sound.members_succ (ih : Sound fuel)
    (h : members? (fuel + 1) depth cs = some (ms, rest)) :
    ∃ text, cs = text ++ '\x7d' :: rest ∧ Forms .members text := by
  rw [members?] at h
  obtain ⟨before, hbefore, hcs⟩ := exists_gap cs
  split at h
  · next behind hquote =>
    split at h
    · cases h
    · next name tail hname =>
      obtain ⟨body, rfl, hbody⟩ := exists_body_of_stringTail? hname
      obtain ⟨after, hafter, htail⟩ := exists_gap tail
      split at h
      · next behind hcolon =>
        split at h
        · cases h
        · next v tail hvalue =>
          obtain ⟨text, rfl, hitem⟩ := ih.item hvalue
          have hmember := Forms.member hbefore hbody hafter hitem
          -- One member: blanks, a name, blanks, a colon and an item.
          have hsplit : cs = before ++ '"' :: (body ++ '"' :: (after ++ ':' :: text)) ++
              skipSpace tail := by
            rw [hcs, hquote, htail, hcolon]
            simp
          dsimp only at h
          split at h
          · next heq =>
            obtain ⟨-, rfl⟩ := Prod.mk.inj (Option.some.inj h)
            exact ⟨_, heq ▸ hsplit, .lastMember hmember⟩
          · next more heq =>
            obtain ⟨⟨ms, _⟩, hmembers, hpair⟩ := Option.map_eq_some_iff.mp h
            obtain ⟨-, rfl⟩ := Prod.mk.inj hpair
            obtain ⟨others, rfl, hothers⟩ := ih.members hmembers
            refine ⟨_, ?_, .moreMembers hmember hothers⟩
            rw [hsplit, heq]
            simp
          · cases h
      · cases h
  · cases h

theorem Sound.value_succ (ih : Sound fuel) (h : value? (fuel + 1) depth cs = some (v, rest)) :
    ∃ gap text, Blank gap ∧ cs = gap ++ (text ++ rest) ∧ Forms v.phrase text := by
  obtain ⟨gap, hgap, hcs⟩ := exists_gap cs
  -- The blanks before a value are skipped, whatever the value is.
  suffices hforms : ∃ text, skipSpace cs = text ++ rest ∧ Forms v.phrase text by
    obtain ⟨text, htext, hforms⟩ := hforms
    exact ⟨gap, text, hgap, htext ▸ hcs, hforms⟩
  rw [value?] at h
  split at h
  · next heq =>
    obtain ⟨rfl, rfl⟩ := Prod.mk.inj (Option.some.inj h)
    exact ⟨"null".toList, heq, .null⟩
  · next heq =>
    obtain ⟨rfl, rfl⟩ := Prod.mk.inj (Option.some.inj h)
    exact ⟨"true".toList, heq, .bool true⟩
  · next heq =>
    obtain ⟨rfl, rfl⟩ := Prod.mk.inj (Option.some.inj h)
    exact ⟨"false".toList, heq, .bool false⟩
  · next behind heq =>
    obtain ⟨⟨name, _⟩, hname, hpair⟩ := Option.map_eq_some_iff.mp h
    obtain ⟨rfl, rfl⟩ := Prod.mk.inj hpair
    obtain ⟨body, rfl, hbody⟩ := exists_body_of_stringTail? hname
    exact ⟨'"' :: (body ++ ['"']), by rw [heq]; simp, .string hbody⟩
  · next behind heq =>
    rw [heq]
    split at h
    · cases h
    · next depth =>
      obtain ⟨gap, hgap, hbehind⟩ := exists_gap behind
      split at h
      · next hclose =>
        obtain ⟨rfl, rfl⟩ := Prod.mk.inj (Option.some.inj h)
        exact ⟨'[' :: (gap ++ [']']), by rw [hbehind, hclose]; simp, .noItems hgap⟩
      · next hopen =>
        obtain ⟨⟨vs, _⟩, hitems, hpair⟩ := Option.map_eq_some_iff.mp h
        obtain ⟨rfl, rfl⟩ := Prod.mk.inj hpair
        -- the blanks before the first item are a part of it
        rw [← items?_skip _ _ hgap, ← hbehind] at hitems
        obtain ⟨text, rfl, hforms⟩ := ih.items hitems
        exact ⟨'[' :: (text ++ [']']), by simp, .array hforms⟩
  · next behind heq =>
    rw [heq]
    split at h
    · cases h
    · next depth =>
      obtain ⟨gap, hgap, hbehind⟩ := exists_gap behind
      split at h
      · next hclose =>
        obtain ⟨rfl, rfl⟩ := Prod.mk.inj (Option.some.inj h)
        exact ⟨'\x7b' :: (gap ++ ['\x7d']), by rw [hbehind, hclose]; simp, .noMembers hgap⟩
      · next hopen =>
        obtain ⟨⟨ms, _⟩, hmembers, hpair⟩ := Option.map_eq_some_iff.mp h
        obtain ⟨rfl, rfl⟩ := Prod.mk.inj hpair
        rw [← members?_skip _ _ hgap, ← hbehind] at hmembers
        obtain ⟨text, rfl, hforms⟩ := ih.members hmembers
        exact ⟨'\x7b' :: (text ++ ['\x7d']), by simp, .object hforms⟩
  · -- Nothing else begins a value but a numeral.
    split at h
    · next n tail hnumeral =>
      obtain ⟨v, hvalue, hpair⟩ := Option.map_eq_some_iff.mp h
      obtain ⟨rfl, rfl⟩ := Prod.mk.inj hpair
      obtain ⟨text, htext, hnumber⟩ := exists_number hnumeral
      exact ⟨text, htext, phrase_of_value? hvalue ▸ .number hnumber⟩
    · cases h

/-- **Whatever is read is of the grammar**, in however many steps. -/
theorem sound (fuel : Nat) : Sound fuel := by
  induction fuel with
  | zero =>
    exact ⟨by simp [value?], by simp [items?], by simp [members?]⟩
  | succ fuel ih => exact ⟨ih.value_succ, ih.items_succ, ih.members_succ⟩

/-- A value is read of a text if nothing but blanks is left behind it. -/
theorem exists_of_parse? {text : String} (h : parse? text = some v) :
    ∃ rest, value? (text.toList.length + 1) maxDepth text.toList = some (v, rest) ∧
      skipSpace rest = [] := by
  rw [parse?, parseChars?] at h
  split at h
  · next w rest hvalue =>
    split at h
    · next hend =>
      obtain rfl := Option.some.inj h
      exact ⟨rest, hvalue, List.isEmpty_iff.mp hend⟩
    · cases h
  · cases h

/-- **A text that is read as a value** is one, but for the blanks around it. -/
theorem forms_of_parse? {text : String} (h : parse? text = some v) :
    ∃ before cs after, Blank before ∧ Blank after ∧ text.toList = before ++ (cs ++ after) ∧
      Forms v.phrase cs := by
  obtain ⟨rest, hvalue, hend⟩ := exists_of_parse? h
  obtain ⟨before, cs, hbefore, heq, hforms⟩ := (sound _).value hvalue
  obtain ⟨after, hafter, hrest⟩ := exists_gap rest
  rw [hend, List.append_nil] at hrest
  exact ⟨before, cs, after, hbefore, hafter, hrest ▸ heq, hforms⟩

/-- A text in curly brackets that can be read has no blanks around it, so all of it is of the
grammar. -/
theorem forms_of_parse?_brackets {text : String} {inner : List Char}
    (htext : text.toList = '\x7b' :: (inner ++ ['\x7d'])) (h : parse? text = some v) :
    Forms v.phrase text.toList := by
  obtain ⟨before, cs, after, hbefore, hafter, heq, hforms⟩ := forms_of_parse? h
  have hsplit := htext.symm.trans heq
  obtain rfl : before = [] := by
    rcases before with _ | ⟨c, before⟩
    · rfl
    · obtain ⟨rfl, -⟩ := List.cons.inj hsplit
      exact absurd (hbefore _ List.mem_cons_self) (by decide)
  obtain rfl : after = [] := by
    rcases List.eq_nil_or_concat after with rfl | ⟨after, c, rfl⟩
    · rfl
    · rw [← List.cons_append, List.nil_append, List.concat_eq_append, ← List.append_assoc]
        at hsplit
      obtain rfl : '\x7d' = c := List.singleton_inj.mp (List.append_inj_right' hsplit rfl)
      exact absurd (hafter '\x7d' (by simp)) (by decide)
  rw [heq, List.nil_append, List.append_nil]
  exact hforms

/-- The compact text of an object is one. -/
theorem forms_compact (h : Readable maxDepth (.object ms)) :
    Forms .object (object ms).compact.toList := by
  have htext : (object ms).compact.toList =
      '\x7b' :: (separate [','] (compactMembers ms) ++ ['\x7d']) := by
    rw [compact, String.toList_ofList, compactChars, List.cons_append]
  exact forms_of_parse?_brackets htext (parse?_compact h)

/-- What begins with a curly bracket is read as an object, if at all. -/
theorem exists_members_of_value? (h : value? fuel depth ('\x7b' :: cs) = some (v, rest)) :
    ∃ ms, v = .object ms := by
  cases fuel with
  | zero => cases h
  | succ fuel =>
    rw [value?, skipSpace_cons (by decide)] at h
    cases depth with
    | zero => cases h
    | succ depth =>
      simp only at h
      split at h
      · exact ⟨[], (Prod.mk.inj (Option.some.inj h)).1.symm⟩
      · obtain ⟨r, -, hpair⟩ := Option.map_eq_some_iff.mp h
        exact ⟨r.1, (Prod.mk.inj hpair).1.symm⟩

theorem exists_members_of_parse? {text : String} (htext : text.toList = '\x7b' :: cs)
    (h : parse? text = some v) : ∃ ms, v = .object ms := by
  obtain ⟨rest, hvalue, -⟩ := exists_of_parse? h
  rw [htext] at hvalue
  exact exists_members_of_value? hvalue

end Dossier.Json
